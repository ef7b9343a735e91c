import ColorWords.Description
import Mathlib.Data.List.Basic

/-!
# Words of a text

The words of a text are its maximal runs of ASCII letters. Everything about them follows from
two equations: a separator cuts the words of a text in two, and a nonempty string of letters is
its own and only word.
-/

namespace ColorWords

/-- A separator cuts the runs of a text in two. -/
theorem Text.runs_append_cons {belongs : Char → Bool} {c : Char} (hc : belongs c = false)
    (x y : List Char) :
    Text.runs belongs (x ++ c :: y) = Text.runs belongs x ++ Text.runs belongs y := by
  unfold Text.runs
  rw [List.splitOnP_append_cons x y (by simp [hc]), List.filter_append]

/-- A nonempty text of characters that belong is its only run. -/
theorem Text.runs_eq_singleton {belongs : Char → Bool} {x : List Char} (hne : x ≠ [])
    (h : ∀ c ∈ x, belongs c = true) : Text.runs belongs x = [x] := by
  unfold Text.runs
  rw [List.splitOnP_eq_singleton fun c hc => by simp [h c hc]]
  simp [hne]

/-- Leading characters that do not belong make no difference to the runs of a text. -/
theorem Text.runs_append_of_forall_not {belongs : Char → Bool} {gap : List Char}
    (h : ∀ c ∈ gap, belongs c = false) (x : List Char) :
    Text.runs belongs (gap ++ x) = Text.runs belongs x := by
  induction gap with
  | nil => rfl
  | cons c rest ih =>
    have hcut := Text.runs_append_cons (h c List.mem_cons_self) [] (rest ++ x)
    rw [List.nil_append, ih fun d hd => h d (List.mem_cons_of_mem _ hd)] at hcut
    exact hcut

/-- Induction over a text along its characters that do not belong. -/
@[elab_as_elim]
theorem Text.cut_induction (belongs : Char → Bool) {motive : List Char → Prop}
    (whole : ∀ text, (∀ c ∈ text, belongs c = true) → motive text)
    (cut : ∀ x c y, belongs c = false → motive x → motive y → motive (x ++ c :: y))
    (text : List Char) : motive text := by
  by_cases hall : ∀ c ∈ text, belongs c = true
  · exact whole text hall
  · simp only [not_forall, Bool.not_eq_true] at hall
    obtain ⟨c, hc, hcut⟩ := hall
    obtain ⟨x, y, htext⟩ := List.append_of_mem hc
    have hlength : text.length = x.length + y.length + 1 := by
      rw [htext, List.length_append, List.length_cons, Nat.add_assoc]
    rw [htext]
    exact cut x c y hcut (cut_induction belongs whole cut x) (cut_induction belongs whole cut y)
termination_by text.length

/-- A run is not empty, and all of its characters belong. -/
theorem Text.belongs_of_mem_runs {belongs : Char → Bool} (text : List Char) {run : List Char}
    (h : run ∈ Text.runs belongs text) : run ≠ [] ∧ ∀ c ∈ run, belongs c = true := by
  induction text using Text.cut_induction belongs with
  | whole text hall =>
    by_cases hempty : text = []
    · rw [hempty] at h
      exact absurd h List.not_mem_nil
    · rw [Text.runs_eq_singleton hempty hall, List.mem_singleton] at h
      exact h ▸ ⟨hempty, hall⟩
  | cut x c y hcut ihx ihy =>
    rw [Text.runs_append_cons hcut, List.mem_append] at h
    exact h.elim ihx ihy

namespace Description

/-- A nonempty string of ASCII letters. -/
def IsWord (text : String) : Prop := text ≠ "" ∧ ∀ c ∈ text.toList, c.isAlpha = true

instance (text : String) : Decidable (IsWord text) :=
  decidable_of_iff (text ≠ "" ∧ text.toList.all Char.isAlpha = true) (by simp [IsWord])

/-- The empty text has no words. -/
@[simp] theorem words_empty : words "" = [] := rfl

/-- A word is its own and only word. -/
theorem words_of_isWord {word : String} (h : IsWord word) : words word = [word] := by
  have hne : word.toList ≠ [] := fun hnil => h.1 (String.toList_eq_nil_iff.mp hnil)
  rw [words, Text.runs_eq_singleton hne h.2, List.map_singleton, String.ofList_toList]

/-- All words are nonempty strings of ASCII letters. -/
theorem isWord_of_mem_words {text word : String} (h : word ∈ words text) : IsWord word := by
  obtain ⟨run, hrun, rfl⟩ := List.mem_map.mp h
  obtain ⟨hne, hletters⟩ := Text.belongs_of_mem_runs _ hrun
  exact ⟨mt String.ofList_eq_empty_iff.mp hne, by rwa [String.toList_ofList]⟩

/-- Exactly the words are their own and only words. -/
theorem words_eq_singleton_iff (text : String) : words text = [text] ↔ IsWord text :=
  ⟨fun h => isWord_of_mem_words (h ▸ List.mem_singleton_self text), words_of_isWord⟩

/-- A string without ASCII letters. -/
def IsSeparator (text : String) : Prop := ∀ c ∈ text.toList, c.isAlpha = false

instance (text : String) : Decidable (IsSeparator text) :=
  List.decidableBAll (fun c : Char => c.isAlpha = false) text.toList

/-- A separator has no words, and there are none before the text that follows it. -/
theorem words_separator_append {gap : String} (h : IsSeparator gap) (x : String) :
    words (gap ++ x) = words x := by
  rw [words, String.toList_append, Text.runs_append_of_forall_not h, words]

/-- A nonempty separator cuts the words of a text in two. -/
theorem words_append_separator {gap : String} (h : IsSeparator gap) (hne : gap ≠ "")
    (x y : String) : words (x ++ gap ++ y) = words x ++ words y := by
  obtain ⟨c, rest, hgap⟩ := List.exists_cons_of_ne_nil (mt String.toList_eq_nil_iff.mp hne)
  have hchars : (x ++ gap ++ y).toList = x.toList ++ c :: (rest ++ y.toList) := by simp [hgap]
  have hc : c.isAlpha = false := h c (hgap ▸ List.mem_cons_self)
  have hrest : ∀ d ∈ rest, d.isAlpha = false := fun d hd => h d (hgap ▸ List.mem_cons_of_mem c hd)
  rw [words, hchars, Text.runs_append_cons hc, Text.runs_append_of_forall_not hrest,
    List.map_append, words, words]

/-- A separator at the end of a text makes no difference to its words. -/
theorem words_append_gap {gap : String} (h : IsSeparator gap) (x : String) :
    words (x ++ gap) = words x := by
  by_cases hempty : gap = ""
  · rw [hempty, String.append_empty]
  · have hcut := words_append_separator h hempty x ""
    rwa [String.append_empty, words_empty, List.append_nil] at hcut

/-- A blank cuts the words of a text in two. -/
theorem words_append_blank (x y : String) : words (x ++ " " ++ y) = words x ++ words y :=
  words_append_separator (by decide) (by decide) x y

/-- Words that are each followed by a blank come before those of the rest. -/
theorem words_join_append {leading : List String} (h : ∀ word ∈ leading, IsWord word)
    (rest : String) :
    words (String.join (leading.map fun word => word ++ " ") ++ rest) = leading ++ words rest := by
  induction leading with
  | nil => simp
  | cons word others ih =>
    have hword := words_of_isWord (h word List.mem_cons_self)
    rw [List.map_cons, String.join_cons, String.append_assoc, words_append_blank, hword,
      ih fun other hother => h other (List.mem_cons_of_mem _ hother)]
    rfl

/-- Words with blanks between them are the words of their text. -/
theorem words_intercalate {listed : List String} (h : ∀ word ∈ listed, IsWord word) :
    words (String.intercalate " " listed) = listed := by
  induction listed with
  | nil => simp
  | cons word rest ih =>
    have hword := words_of_isWord (h word List.mem_cons_self)
    have hrest := ih fun other hother => h other (List.mem_cons_of_mem _ hother)
    cases rest with
    | nil => rw [String.intercalate_singleton, hword]
    | cons next others =>
      rw [String.intercalate_cons_cons, words_append_blank, hword, hrest]
      rfl

/-- The text consists of the given pieces in order, with a nonempty separator between any two of
them. -/
inductive IsJoined : List String → String → Prop where
  | single (piece : String) : IsJoined [piece] piece
  | cons {pieces : List String} {text gap : String} (piece : String) (hgap : IsSeparator gap)
      (hne : gap ≠ "") (h : IsJoined pieces text) :
      IsJoined (piece :: pieces) (piece ++ gap ++ text)

/-- Words that are joined by separators are the words of the text. -/
theorem IsJoined.words_eq {listed : List String} {text : String} (h : IsJoined listed text)
    (hwords : ∀ word ∈ listed, IsWord word) : words text = listed := by
  induction h with
  | single word => exact words_of_isWord (hwords word List.mem_cons_self)
  | cons word hgap hne _ ih =>
    rw [words_append_separator hgap hne, words_of_isWord (hwords word List.mem_cons_self),
      ih fun other hother => hwords other (List.mem_cons_of_mem _ hother)]
    rfl

end Description

end ColorWords
