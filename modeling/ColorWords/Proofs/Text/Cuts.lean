import ColorWords.Proofs.Text.Words
import Mathlib.Data.List.Basic

/-!
# Cutting texts

How the ways to cut a text act on texts put together from known pieces: trimming leaves a text
alone whose ends are not blank, a separator is found where no other one stands before it, and
line feeds cut a text into its lines.
-/

namespace ColorWords.Text

/-- No character of the text is white space. -/
def HasNoBlank (text : List Char) : Prop := ∀ c ∈ text, isBlank c = false

/-! ## Trimming -/

/-- A text that begins with something else keeps its beginning. -/
theorem trimStart_cons {c : Char} (hc : isBlank c = false) (text : List Char) :
    trimStart (c :: text) = c :: text := by
  rw [trimStart, List.dropWhile_cons_of_neg (by simp [hc])]

/-- White space at the beginning is dropped. -/
theorem trimStart_cons_of_isBlank {c : Char} (hc : isBlank c = true) (text : List Char) :
    trimStart (c :: text) = trimStart text := by
  rw [trimStart, List.dropWhile_cons_of_pos hc, trimStart]

/-- A text that neither begins nor ends with white space is not changed by trimming. -/
theorem trim_of_ends {c d : Char} (hc : isBlank c = false) (hd : isBlank d = false)
    {text inner : List Char} (hhead : text.head? = some c) (hlast : text = inner ++ [d]) :
    trim text = text := by
  obtain ⟨rest, rfl⟩ := List.head?_eq_some_iff.mp hhead
  rw [trim, trimStart_cons hc, hlast, List.reverse_append, List.reverse_singleton,
    List.singleton_append, trimStart_cons hd, List.reverse_cons, List.reverse_reverse]

/-- A text without white space is not changed by trimming. -/
theorem trim_of_hasNoBlank {text : List Char} (h : HasNoBlank text) : trim text = text := by
  rcases text.eq_nil_or_concat' with rfl | ⟨inner, d, hlast⟩
  · rfl
  · cases text with
    | nil => rfl
    | cons c rest =>
      have hd : d ∈ c :: rest := hlast ▸ List.mem_append_right _ List.mem_cons_self
      exact trim_of_ends (h c List.mem_cons_self) (h d hd) rfl hlast

/-- White space before a text is dropped. -/
theorem trim_cons_of_isBlank {c : Char} (hc : isBlank c = true) (text : List Char) :
    trim (c :: text) = trim text := by
  rw [trim, trimStart_cons_of_isBlank hc, trim]

/-- White space after a text without any is dropped. -/
theorem trim_append_singleton {text : List Char} (h : HasNoBlank text) {c : Char}
    (hc : isBlank c = true) : trim (text ++ [c]) = text := by
  cases text with
  | nil => rw [List.nil_append, trim_cons_of_isBlank hc]; rfl
  | cons d rest =>
    have htrim := trim_of_hasNoBlank h
    rw [trim, trimStart_cons (h d List.mem_cons_self)] at htrim
    rw [trim, List.cons_append, trimStart_cons (h d List.mem_cons_self), ← List.cons_append,
      List.reverse_append, List.reverse_singleton, List.singleton_append,
      trimStart_cons_of_isBlank hc, htrim]

/-! ## Separators -/

/-- A text is split at the first separator. -/
theorem splitOnce?_append_cons {separates : Char → Bool} {before : List Char}
    (hbefore : ∀ c ∈ before, separates c = false) {c : Char} (hc : separates c = true)
    (after : List Char) : splitOnce? separates (before ++ c :: after) = some (before, after) := by
  induction before with
  | nil => simp [splitOnce?, hc]
  | cons d before ih =>
    rw [List.cons_append, splitOnce?, hbefore d List.mem_cons_self,
      ih fun e he => hbefore e (List.mem_cons_of_mem _ he)]
    rfl

/-- A text without a separator is not split. -/
theorem splitOnce?_eq_none {separates : Char → Bool} {text : List Char}
    (h : ∀ c ∈ text, separates c = false) : splitOnce? separates text = none := by
  induction text with
  | nil => rfl
  | cons c text ih =>
    rw [splitOnce?, h c List.mem_cons_self, ih fun d hd => h d (List.mem_cons_of_mem _ hd)]
    rfl

/-- A text that is split is its two parts with a separator between them. -/
theorem exists_eq_of_splitOnce? {separates : Char → Bool} {text before after : List Char}
    (h : splitOnce? separates text = some (before, after)) :
    ∃ c, separates c = true ∧ (∀ d ∈ before, separates d = false) ∧
      text = before ++ c :: after := by
  induction text generalizing before with
  | nil => cases h
  | cons c text ih =>
    rw [splitOnce?] at h
    split at h
    · next hc =>
      cases h
      exact ⟨c, hc, by simp, rfl⟩
    · next hc =>
      obtain ⟨⟨first, rest⟩, hrest, heq⟩ := Option.map_eq_some_iff.mp h
      cases heq
      obtain ⟨d, hd, hbefore, rfl⟩ := ih hrest
      exact ⟨d, hd, List.forall_mem_cons.mpr ⟨eq_false_of_ne_true hc, hbefore⟩, rfl⟩

/-- Exactly the texts without a separator are not split. -/
theorem splitOnce?_eq_none_iff {separates : Char → Bool} {text : List Char} :
    splitOnce? separates text = none ↔ ∀ c ∈ text, separates c = false := by
  refine ⟨fun h => ?_, splitOnce?_eq_none⟩
  induction text with
  | nil => simp
  | cons c text ih =>
    rw [splitOnce?] at h
    split at h
    · cases h
    · next hc =>
      have hrest := ih (Option.map_eq_none_iff.mp h)
      exact List.forall_mem_cons.mpr ⟨eq_false_of_ne_true hc, hrest⟩

/-! ## Lines -/

/-- The first line ends at the first line feed. -/
theorem lines_append_cons {line : List Char} (h : '\n' ∉ line) (rest : List Char) :
    lines (line ++ '\n' :: rest) = line :: lines rest := by
  have hline : line.splitOnP (· == '\n') = [line] :=
    List.splitOnP_eq_singleton fun c hc => beq_false_of_ne fun heq => h (heq ▸ hc)
  rw [lines, List.splitOn_eq_splitOnP, List.splitOnP_append_cons _ _ (by simp), hline,
    List.singleton_append, lines, List.splitOn_eq_splitOnP]

/-- Lines that are each followed by a line feed come before those of the rest. -/
theorem lines_flatMap {β : Type} {items : List β} {line : β → List Char}
    (h : ∀ item ∈ items, '\n' ∉ line item) (rest : List Char) :
    lines (items.flatMap (fun item => line item ++ ['\n']) ++ rest) =
      items.map line ++ lines rest := by
  induction items with
  | nil => rfl
  | cons item items ih =>
    rw [List.flatMap_cons, List.append_assoc, List.append_assoc, List.singleton_append,
      lines_append_cons (h item List.mem_cons_self),
      ih fun other hother => h other (List.mem_cons_of_mem _ hother), List.map_cons,
      List.cons_append]

end ColorWords.Text
