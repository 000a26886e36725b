/-
What the strings of a dynamic language do: `strip`, and `repr`.

A strip takes whitespace from both ends and from nowhere else, so a passage that neither
begins nor ends with whitespace is still there afterwards.
-/
import Mathlib.Data.List.DropRight

namespace Orqent

/-- A text is a sequence of code points. -/
abbrev Text := List Char

/-! ### Quoting -/

/-- How a character reads between quotes.  Beyond ASCII, every character is printed. -/
def escaped (quote c : Char) : String :=
  if c = quote || c = '\\' then "\\" ++ c.toString
  else if c = '\t' then "\\t"
  else if c = '\n' then "\\n"
  else if c = '\r' then "\\r"
  else if c.toNat < 32 || c.toNat = 127 then
    "\\x" ++ String.ofList [Nat.digitChar (c.toNat / 16), Nat.digitChar (c.toNat % 16)]
  else c.toString

/-- How a name reads inside a message: its `repr`, in single quotes unless only those occur. -/
def quoted (s : String) : String :=
  -- 39 is the single quote, 34 the double one
  let quote :=
    if s.toList.contains (Char.ofNat 39) && !s.toList.contains (Char.ofNat 34) then Char.ofNat 34
    else Char.ofNat 39
  quote.toString ++ String.join (s.toList.map (escaped quote)) ++ quote.toString

/-! ### Stripping -/

/-- The characters `str.strip` removes. -/
def isSpace (c : Char) : Bool :=
  let n := c.toNat
  (9 ≤ n && n ≤ 13) || (28 ≤ n && n ≤ 32) || n = 0x85 || n = 0xA0 || n = 0x1680 ||
    (0x2000 ≤ n && n ≤ 0x200A) || n = 0x2028 || n = 0x2029 || n = 0x202F || n = 0x205F || n = 0x3000

/-- `text.strip()`. -/
def strip (text : Text) : Text := (text.dropWhile isSpace).rdropWhile isSpace

/-- Something, with no whitespace at either end. -/
def Trimmed (text : Text) : Prop :=
  text ≠ [] ∧ (∀ c ∈ text.head?, isSpace c = false) ∧ ∀ c ∈ text.getLast?, isSpace c = false

section Strip

variable {text sub : Text} {c : Char}

/-- What is left of a text begins with something. -/
theorem strip_head (h : c ∈ (strip text).head?) : isSpace c = false := by
  have hleads : strip text <+: text.dropWhile isSpace := List.rdropWhile_prefix ..
  have hne : strip text ≠ [] := by
    intro hnil
    simp [hnil] at h
  obtain ⟨d, rest, hd⟩ := List.exists_cons_of_ne_nil hne
  obtain rfl : d = c := by simpa [hd] using h
  obtain ⟨tail, htail⟩ := hleads
  rw [hd, List.cons_append] at htail
  have hfirst := List.head?_dropWhile_not isSpace text
  rw [← htail] at hfirst
  simpa using hfirst

/-- Nothing is taken away in front of a text that begins with something. -/
theorem strip_isPrefix (h : ∀ c ∈ text.head?, isSpace c = false) : strip text <+: text := by
  have hdrop : text.dropWhile isSpace = text := by
    cases text with
    | nil => rfl
    | cons c rest => simp [h c (by simp)]
  unfold strip
  rw [hdrop]
  exact List.rdropWhile_prefix ..

/-- What begins with something is not stripped of it. -/
theorem strip_cons {rest : Text} (h : isSpace c = false) :
    ∃ tail, strip (c :: rest) = c :: tail := by
  have hne : strip (c :: rest) ≠ [] := by
    intro hnil
    unfold strip at hnil
    rw [List.dropWhile_cons_of_neg (by simp [h]), List.rdropWhile_eq_nil_iff] at hnil
    have hspace := hnil c List.mem_cons_self
    simp [h] at hspace
  obtain ⟨d, tail, hd⟩ := List.exists_cons_of_ne_nil hne
  have hleads : strip (c :: rest) <+: c :: rest := strip_isPrefix (by simpa using h)
  rw [hd, List.cons_prefix_cons] at hleads
  exact ⟨tail, by rw [hd, hleads.1]⟩

theorem strip_length_le : (strip text).length ≤ text.length := by
  refine Nat.le_trans (List.IsPrefix.length_le (List.rdropWhile_prefix ..)) ?_
  exact (List.dropWhile_sublist _).length_le

theorem strip_getLast (h : c ∈ (strip text).getLast?) : isSpace c = false := by
  have hne : strip text ≠ [] := by
    intro hnil
    simp [hnil] at h
  have hlast : ¬ isSpace ((strip text).getLast hne) = true := List.rdropWhile_last_not _ _ hne
  rw [List.getLast?_eq_some_getLast hne] at h
  obtain rfl : (strip text).getLast hne = c := by simpa using h
  simpa using hlast

/-- **What is left after a strip is trimmed.** -/
theorem strip_trimmed (h : strip text ≠ []) : Trimmed (strip text) :=
  ⟨h, fun _ => strip_head, fun _ => strip_getLast⟩

/-- A text is blank when it is all whitespace. -/
theorem strip_eq_nil_iff : strip text = [] ↔ ∀ c ∈ text, isSpace c = true := by
  unfold strip
  rw [List.rdropWhile_eq_nil_iff]
  constructor
  · intro h c hc
    have hall : text.dropWhile isSpace = [] := by
      by_contra hne
      obtain ⟨d, rest, hd⟩ := List.exists_cons_of_ne_nil hne
      have hspace := h d (by simp [hd])
      have hfirst := List.head?_dropWhile_not isSpace text
      simp [hd, hspace] at hfirst
    exact List.dropWhile_eq_nil_iff.mp hall c hc
  · intro h c hc
    exact h c ((List.dropWhile_sublist _).subset hc)

/-- Dropping from the front stops at the latest where a passage begins that is kept. -/
theorem dropWhile_append_keeps (p : Char → Bool) (front back : Text)
    (hne : sub ≠ []) (hhead : ∀ c ∈ sub.head?, p c = false) :
    ∃ front', (front ++ sub ++ back).dropWhile p = front' ++ sub ++ back := by
  induction front with
  | nil =>
      obtain ⟨d, rest, rfl⟩ := List.exists_cons_of_ne_nil hne
      have hkeep : p d = false := hhead d (by simp)
      exact ⟨[], by simp [hkeep]⟩
  | cons d front ih =>
      by_cases hd : p d = true
      · obtain ⟨front', hfront⟩ := ih
        refine ⟨front', ?_⟩
        simpa [hd] using hfront
      · exact ⟨d :: front, by simp [hd]⟩

/-- **A strip does not reach into a trimmed passage.** -/
theorem Trimmed.isInfix_strip (ht : Trimmed sub) (h : sub <:+: text) : sub <:+: strip text := by
  obtain ⟨hne, hhead, hlast⟩ := ht
  obtain ⟨front, back, rfl⟩ := h
  obtain ⟨front', hfront⟩ := dropWhile_append_keeps isSpace front back hne hhead
  -- The back of a text is the front of it read backwards.
  have hlast' : ∀ c ∈ sub.reverse.head?, isSpace c = false := by
    simpa using hlast
  obtain ⟨back', hback⟩ := dropWhile_append_keeps isSpace back.reverse front'.reverse
    (by simpa using hne) hlast'
  refine ⟨front', back'.reverse, ?_⟩
  unfold strip List.rdropWhile
  rw [hfront, List.reverse_append, List.reverse_append, ← List.append_assoc, hback]
  simp

end Strip

end Orqent
