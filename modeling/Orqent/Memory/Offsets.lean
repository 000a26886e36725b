/-
Where the chunks of a text say they are.

A chunk is said to lie at the offset its window starts at.  Two strips come in between:
the text is stripped before it is cut, so an offset counts from the first character that
is not whitespace; and each window is stripped, so its chunk may begin after it does.  An
offset is right where neither strip removes anything in front.
-/
import Orqent.Memory.Chunking
import Mathlib.Logic.Relation

namespace Orqent

/-- The chunk lies in the text at the offsets it says. -/
def Chunk.Locates (text : Text) (c : Chunk) : Prop := slice text c.start c.stop = c.text

instance (text : Text) (c : Chunk) : Decidable (c.Locates text) :=
  inferInstanceAs (Decidable (_ = _))

/-- Blank, or with something other than whitespace in front. -/
def Flush (text : Text) : Prop := strip text = [] ∨ ∀ c ∈ text.head?, isSpace c = false

/-- The window the loop cuts at `start`. -/
def window (text : Text) (start : Nat) : Text := slice text start (boundary text start)

/-- After the window at `start` the loop goes on with one at `next`. -/
def NextWindow (text : Text) (start next : Nat) : Prop :=
  boundary text start < text.length ∧ next = max (boundary text start - chunkOverlap) (start + 1)

/-- The loop over the text comes to a window at `start`. -/
def WindowAt (text : Text) (start : Nat) : Prop := Relation.ReflTransGen (NextWindow text) 0 start

/-! ### Stripping -/

section Strip

variable {text : Text} {start stop : Nat}

/-- **A strip takes nothing away in front of a flush text, and only of those.** -/
theorem take_strip_iff : text.take (strip text).length = strip text ↔ Flush text := by
  constructor
  · intro h
    by_cases hnil : strip text = []
    · exact Or.inl hnil
    · refine Or.inr fun c hc => ?_
      obtain ⟨d, rest, hd⟩ := List.exists_cons_of_ne_nil hnil
      have hhead : (text.take (strip text).length).head? = some d := by rw [h, hd]; rfl
      rw [List.head?_take, if_neg (by simp [hd])] at hhead
      obtain rfl : c = d := by simpa [hhead] using hc.symm
      have hfirst : c ∈ (strip text).head? := by simp [hd]
      exact strip_head hfirst
  · intro h
    rcases h with hnil | hhead
    · simp [hnil]
    · exact (List.prefix_iff_eq_take.mp (strip_isPrefix hhead)).symm

/-- The beginning of a slice is a slice. -/
theorem slice_take {n : Nat} (h : n ≤ (slice text start stop).length) :
    slice text start (start + n) = (slice text start stop).take n := by
  by_cases hn : n = 0
  · subst hn
    exact List.drop_eq_nil_of_le (List.length_take_le ..)
  · unfold slice at h ⊢
    rw [List.length_drop, List.length_take] at h
    rw [List.take_drop, List.take_take]
    rw [Nat.min_eq_left (by omega)]

end Strip

/-! ### The loop -/

section Loop

variable {text : Text} {start ordinal : Nat}

theorem emittedChunk_locates_iff :
    (∀ c ∈ emittedChunk text start ordinal, c.Locates text) ↔ Flush (window text start) := by
  rw [← take_strip_iff]
  have hslice : slice text start (start + (strip (window text start)).length)
      = (window text start).take (strip (window text start)).length := slice_take strip_length_le
  unfold emittedChunk
  dsimp only
  rw [show slice text start (boundary text start) = window text start from rfl]
  by_cases hnil : strip (window text start) = []
  · rw [if_pos (by simpa using hnil)]
    simp [hnil]
  · rw [if_neg (by simpa using hnil)]
    simp only [List.mem_singleton, forall_eq, Chunk.Locates, Chunk.stop]
    rw [← hslice]

/-- Nothing is cut past the end. -/
theorem boundary_of_length_le (h : text.length ≤ start) : boundary text start = text.length := by
  unfold boundary
  dsimp only
  rw [Nat.min_eq_right (by omega), if_pos le_rfl]

/-- **The chunks of a loop lie where they say if every window it comes to is flush.** -/
theorem chunkLoop_locates_iff : (∀ c ∈ chunkLoop text start ordinal, c.Locates text) ↔
    ∀ next, Relation.ReflTransGen (NextWindow text) start next → Flush (window text next) := by
  induction start, ordinal using chunkLoop.induct text with
  | case1 start ordinal hlt stop hend =>
      rw [chunkLoop_eq text ordinal hlt, if_pos hend, List.append_nil, emittedChunk_locates_iff]
      constructor
      · intro h next hnext
        rcases hnext.cases_head with rfl | ⟨mid, hmid, -⟩
        · exact h
        · exact absurd hmid.1 (Nat.not_lt.mpr hend)
      · intro h
        exact h start .refl
  | case2 start ordinal hlt stop piece emitted hend ih =>
      rw [chunkLoop_eq text ordinal hlt, if_neg hend]
      simp only [List.mem_append]
      constructor
      · intro h next hnext
        rcases hnext.cases_head with rfl | ⟨mid, hmid, hrest⟩
        · exact emittedChunk_locates_iff.mp fun c hc => h c (Or.inl hc)
        · rw [hmid.2] at hrest
          exact ih.mp (fun c hc => h c (Or.inr hc)) next hrest
      · intro h c hc
        rcases hc with hc | hc
        · exact emittedChunk_locates_iff.mpr (h start .refl) c hc
        · refine ih.mpr (fun next hnext => h next ?_) c hc
          exact .head ⟨Nat.lt_of_not_le hend, rfl⟩ hnext
  | case3 start ordinal hlt =>
      have hboundary := boundary_of_length_le (Nat.le_of_not_lt hlt)
      rw [chunkLoop, if_neg hlt]
      refine iff_of_true (by simp) fun next hnext => ?_
      rcases hnext.cases_head with rfl | ⟨mid, hmid, -⟩
      · refine Or.inl ?_
        have hwindow : window text start = [] := by
          unfold window slice
          rw [List.drop_eq_nil_of_le]
          rw [List.length_take, hboundary]
          omega
        rw [hwindow]
        rfl
      · have hlt' := hmid.1
        omega

end Loop

/-! ### The text that was passed in -/

section Document

variable {text : Text}

/-- Cutting from a text that is stripped already, the offsets depend on its windows alone. -/
theorem chunkText_locates_strip_iff : (∀ c ∈ chunkText text, c.Locates (strip text)) ↔
    ∀ start, WindowAt (strip text) start → Flush (window (strip text) start) := by
  unfold chunkText WindowAt
  dsimp only
  by_cases hnil : strip text = []
  · have hloop : (∀ c ∈ chunkLoop (strip text) 0 0, c.Locates (strip text)) ↔ _ :=
      chunkLoop_locates_iff
    rw [if_pos (by simpa using hnil), ← hloop]
    refine iff_of_true (by simp) ?_
    rw [hnil, chunkLoop]
    simp
  · rw [if_neg (by simpa using hnil)]
    by_cases hone : (strip text).length ≤ chunkSize
    · rw [if_pos hone]
      have hboundary : boundary (strip text) 0 = (strip text).length := by
        unfold boundary
        dsimp only
        rw [Nat.zero_add, Nat.min_eq_right hone, if_pos le_rfl]
      have hwindow : window (strip text) 0 = strip text := by
        simp [window, slice, hboundary]
      refine iff_of_true ?_ fun start hstart => ?_
      · simp [Chunk.Locates, Chunk.stop, slice]
      · rcases hstart.cases_head with rfl | ⟨mid, hmid, -⟩
        · rw [hwindow]
          exact Or.inr fun c hc => strip_head hc
        · have hlt := hmid.1
          omega
    · rw [if_neg hone]
      exact chunkLoop_locates_iff

/-- No chunk reaches past the end. -/
theorem chunkLoop_stop_le {start ordinal : Nat} :
    ∀ c ∈ chunkLoop text start ordinal, c.stop ≤ text.length := by
  have hemitted : ∀ start ordinal, start < text.length →
      ∀ c ∈ emittedChunk text start ordinal, c.stop ≤ text.length := by
    intro start ordinal hlt c hc
    unfold emittedChunk at hc
    dsimp only at hc
    split at hc
    · simp at hc
    · rw [List.mem_singleton.mp hc]
      have hpiece : (strip (slice text start (boundary text start))).length ≤
          (slice text start (boundary text start)).length := strip_length_le
      have hslice : (slice text start (boundary text start)).length
          = min (boundary text start) text.length - start := by
        simp [slice]
      show start + (strip (slice text start (boundary text start))).length ≤ text.length
      omega
  induction start, ordinal using chunkLoop.induct text with
  | case1 start ordinal hlt stop hend =>
      rw [chunkLoop_eq text ordinal hlt, if_pos hend, List.append_nil]
      exact hemitted start ordinal hlt
  | case2 start ordinal hlt stop piece emitted hend ih =>
      rw [chunkLoop_eq text ordinal hlt, if_neg hend]
      intro c hc
      rcases List.mem_append.mp hc with hc | hc
      · exact hemitted start ordinal hlt c hc
      · exact ih c hc
  | case3 start ordinal hlt =>
      rw [chunkLoop, if_neg hlt]
      simp

theorem chunkText_stop_le : ∀ c ∈ chunkText text, c.stop ≤ (strip text).length := by
  unfold chunkText
  dsimp only
  split
  · simp
  · split
    · simp [Chunk.stop]
    · exact chunkLoop_stop_le

theorem boundary_pos (h : text ≠ []) : 0 < boundary text 0 := by
  have hpos : 0 < text.length := List.length_pos_iff.mpr h
  have hhard : 0 < min (0 + chunkSize) text.length := by
    unfold chunkSize
    omega
  unfold boundary
  dsimp only
  split
  · exact hhard
  · split
    · split
      · assumption
      · exact hhard
    · exact hhard

/-- The first chunk of a text begins with its first character that is not whitespace. -/
theorem exists_first_chunk (h : strip text ≠ []) :
    ∃ c ∈ chunkText text, c.start = 0 ∧ ∃ d ∈ c.text.head?, isSpace d = false := by
  obtain ⟨d, rest, hd⟩ := List.exists_cons_of_ne_nil h
  have hfirst : d ∈ (strip text).head? := by simp [hd]
  have hspace : isSpace d = false := strip_head hfirst
  unfold chunkText
  dsimp only
  rw [if_neg (by simpa using h)]
  split
  · exact ⟨_, List.mem_singleton_self _, rfl, d, by simp [hd], hspace⟩
  · obtain ⟨n, hn⟩ := Nat.exists_eq_add_one_of_ne_zero (Nat.pos_iff_ne_zero.mp (boundary_pos h))
    have hwindow : window (strip text) 0 = d :: rest.take n := by
      rw [window, slice, hn, hd]
      rfl
    have hpiece : ∃ tail, strip (d :: rest.take n) = d :: tail := strip_cons hspace
    rw [← hwindow] at hpiece
    obtain ⟨tail, htail⟩ := hpiece
    refine ⟨⟨0, strip (window (strip text) 0), 0⟩, ?_, rfl, d, by simp [htail], hspace⟩
    rw [chunkLoop_eq _ _ (List.length_pos_iff.mpr h)]
    refine List.mem_append_left _ ?_
    unfold emittedChunk
    dsimp only
    rw [show slice (strip text) 0 (boundary (strip text) 0) = window (strip text) 0 from rfl,
      if_neg (by simp [htail])]
    exact List.mem_singleton_self _

/--
**The offsets point back into the source where nothing is stripped in front.**  Every
chunk lies in the text at the offsets it says if and only if the text does not begin with
whitespace, unless it is blank, and neither does any window the loop cuts from it.
-/
theorem offsets_point_back_iff (text : Text) : (∀ c ∈ chunkText text, c.Locates text) ↔
    Flush text ∧ ∀ start, WindowAt (strip text) start → Flush (window (strip text) start) := by
  rw [← chunkText_locates_strip_iff]
  by_cases hnil : strip text = []
  · have hnone : chunkText text = [] := by simp [chunkText, hnil]
    simp [hnone, Flush, hnil]
  by_cases hhead : ∀ c ∈ text.head?, isSpace c = false
  · -- The stripped text is the beginning of this one, and no chunk reaches past it.
    have hleads : strip text = text.take (strip text).length :=
      List.prefix_iff_eq_take.mp (strip_isPrefix hhead)
    rw [and_iff_right (show Flush text from Or.inr hhead)]
    refine forall₂_congr fun c hc => ?_
    have hslice : slice (strip text) c.start c.stop = slice text c.start c.stop := by
      unfold slice
      rw [hleads, List.take_take, Nat.min_eq_left (chunkText_stop_le c hc)]
    unfold Chunk.Locates
    rw [hslice]
  · have hleading : ¬ Flush text := by
      intro hc
      exact hc.elim hnil hhead
    refine iff_of_false (fun h => ?_) fun h => hleading h.1
    -- The first chunk says it begins where the whitespace does.
    obtain ⟨c, hc, hstart, d, hd, hspace⟩ := exists_first_chunk hnil
    have hlocates : slice text c.start c.stop = c.text := h c hc
    obtain ⟨e, he⟩ : ∃ e, text = e :: text.tail := by
      cases text with
      | nil => exact absurd rfl hnil
      | cons e rest => exact ⟨e, rfl⟩
    have hfirst : (slice text c.start c.stop).head? = some e := by
      have hpos : c.stop ≠ 0 := by
        intro hzero
        rw [hstart, hzero] at hlocates
        simp [← hlocates, slice] at hd
      rw [hstart, slice, List.drop_zero, List.head?_take, if_neg hpos, he]
      rfl
    rw [hlocates, hd] at hfirst
    obtain rfl := Option.some.inj hfirst
    exact hhead fun c' hc' => by
      rw [he] at hc'
      obtain rfl : d = c' := by simpa using hc'
      exact hspace

/-- The chunk of a text after a blank says it begins at the blank. -/
theorem leading_blank_misplaced : ∃ c ∈ chunkText [' ', 'a'], ¬ c.Locates [' ', 'a'] := by
  decide

end Document

end Orqent
