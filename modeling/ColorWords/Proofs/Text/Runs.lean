import ColorWords.Proofs.Text.Words
import Mathlib

/-!
# Words as maximal runs

A run of a text is a span of positions whose characters all belong, and that neither begins after
nor ends before another character that belongs. A character that does not belong cuts the text in
two, and the spans of the text are those of the two parts, the second ones shifted. So do the words
of a text, which are therefore exactly the characters at its spans of letters, in order.
-/

namespace ColorWords

namespace Text

/-! ## Positions -/

/-- The text has a character that belongs at the position. -/
def BelongsAt (belongs : Char → Bool) (text : List Char) (i : ℕ) : Prop :=
  ∃ c, text[i]? = some c ∧ belongs c = true

/-- Positions of a text, from the start up to the stop, which is not one of them. -/
@[ext]
structure Span where
  start : ℕ
  stop : ℕ

namespace Span

/-- The characters of a text at the positions of a span. -/
def slice (span : Span) (text : List Char) : List Char :=
  (text.drop span.start).take (span.stop - span.start)

/-- The span with all positions moved to the right. -/
def shift (distance : ℕ) (span : Span) : Span := ⟨distance + span.start, distance + span.stop⟩

/-- The characters at the positions of the span all belong, there are some, and no more of them on
either side. -/
structure IsRun (belongs : Char → Bool) (text : List Char) (span : Span) : Prop where
  nonempty : span.start < span.stop
  inside : ∀ i, span.start ≤ i → i < span.stop → BelongsAt belongs text i
  before : ∀ i, i + 1 = span.start → ¬ BelongsAt belongs text i
  after : ¬ BelongsAt belongs text span.stop

end Span

variable {belongs : Char → Bool}

/-- Only positions of the text have a character. -/
theorem BelongsAt.lt_length {text : List Char} {i : ℕ} (h : BelongsAt belongs text i) :
    i < text.length := by
  obtain ⟨c, hc, -⟩ := h
  exact (List.getElem?_eq_some_iff.mp hc).1

/-- In a text of characters that belong there is one at every position. -/
theorem belongsAt_iff_lt_length {text : List Char} (h : ∀ c ∈ text, belongs c = true) (i : ℕ) :
    BelongsAt belongs text i ↔ i < text.length :=
  ⟨BelongsAt.lt_length, fun hi => ⟨text[i], List.getElem?_eq_getElem hi, h _ (List.getElem_mem hi)⟩⟩

section Cut

variable {c : Char} (hc : belongs c = false) (x y : List Char)

include hc

/-- Up to a character that does not belong, the positions are those of the text before it. -/
theorem belongsAt_append_cons_left {i : ℕ} (hi : i ≤ x.length) :
    BelongsAt belongs (x ++ c :: y) i ↔ BelongsAt belongs x i := by
  rcases hi.lt_or_eq with hlt | rfl
  · rw [BelongsAt, BelongsAt, List.getElem?_append_left hlt]
  · refine iff_of_false ?_ fun h => h.lt_length.false
    simp [BelongsAt, hc]

omit hc in
/-- Past a character, the positions are those of the text after it. -/
theorem belongsAt_append_cons_right (i : ℕ) :
    BelongsAt belongs (x ++ c :: y) (x.length + 1 + i) ↔ BelongsAt belongs y i := by
  have hget : (x ++ c :: y)[x.length + 1 + i]? = y[i]? := by
    rw [List.getElem?_append_right (by omega)]
    simp [Nat.add_assoc, Nat.add_comm 1]
  rw [BelongsAt, hget, BelongsAt]

end Cut

/-! ## Spans -/

namespace Span

/-- The only run of a text of characters that belong is the text, unless it is empty. -/
theorem isRun_iff_of_forall {text : List Char} (h : ∀ c ∈ text, belongs c = true) (span : Span) :
    span.IsRun belongs text ↔ span = ⟨0, text.length⟩ ∧ text ≠ [] := by
  have hat := belongsAt_iff_lt_length h
  constructor
  · rintro ⟨hnonempty, hinside, hbefore, hafter⟩
    have hlast := (hat _).mp (hinside (span.stop - 1) (by omega) (by omega))
    have hstop : span.stop = text.length := by
      rw [hat] at hafter
      omega
    have hstart : span.start = 0 := by
      by_contra hpos
      exact hbefore (span.start - 1) (by omega) ((hat _).mpr (by omega))
    exact ⟨by rw [← hstop, ← hstart], List.ne_nil_of_length_pos (by omega)⟩
  · rintro ⟨rfl, hne⟩
    exact ⟨List.length_pos_iff.mpr hne, fun i _ hi => (hat i).mpr hi,
      fun i hi => absurd hi (Nat.succ_ne_zero i), fun hstop => hstop.lt_length.false⟩

/-- A run ends within the text. -/
theorem IsRun.stop_le_length {text : List Char} {span : Span} (h : span.IsRun belongs text) :
    span.stop ≤ text.length := by
  have hnonempty := h.nonempty
  have hlast := (h.inside (span.stop - 1) (by omega) (by omega)).lt_length
  omega

section Cut

variable {c : Char} (hc : belongs c = false) (x y : List Char)

include hc

/-- The runs before a character that does not belong are those of the text before it. -/
theorem isRun_append_cons_left {span : Span} (h : span.stop ≤ x.length) :
    span.IsRun belongs (x ++ c :: y) ↔ span.IsRun belongs x := by
  have hat {i : ℕ} (hi : i ≤ span.stop) := belongsAt_append_cons_left hc x y (hi.trans h)
  constructor
  · rintro ⟨hnonempty, hinside, hbefore, hafter⟩
    exact ⟨hnonempty, fun i hi hi' => (hat hi'.le).mp (hinside i hi hi'),
      fun i hi hx => hbefore i hi ((hat (by omega)).mpr hx), mt (hat le_rfl).mpr hafter⟩
  · rintro ⟨hnonempty, hinside, hbefore, hafter⟩
    exact ⟨hnonempty, fun i hi hi' => (hat hi'.le).mpr (hinside i hi hi'),
      fun i hi hx => hbefore i hi ((hat (by omega)).mp hx), mt (hat le_rfl).mp hafter⟩

/-- The runs after a character that does not belong are those of the text after it, shifted. -/
theorem isRun_append_cons_right (span : Span) :
    (shift (x.length + 1) span).IsRun belongs (x ++ c :: y) ↔ span.IsRun belongs y := by
  have hat (i : ℕ) : BelongsAt belongs (x ++ c :: y) (x.length + 1 + i) ↔ BelongsAt belongs y i :=
    belongsAt_append_cons_right x y i
  have hcut : ¬ BelongsAt belongs (x ++ c :: y) x.length := fun h =>
    ((belongsAt_append_cons_left hc x y le_rfl).mp h).lt_length.false
  constructor
  · rintro ⟨hnonempty, hinside, hbefore, hafter⟩
    refine ⟨Nat.lt_of_add_lt_add_left hnonempty, fun i hi hi' => (hat i).mp ?_,
      fun i hi hy => hbefore (x.length + 1 + i) ?_ ((hat i).mpr hy), mt (hat _).mpr hafter⟩
    · exact hinside _ (Nat.add_le_add_left hi _) (Nat.add_lt_add_left hi' _)
    · rw [shift, ← hi, Nat.add_assoc]
  · rintro ⟨hnonempty, hinside, hbefore, hafter⟩
    refine ⟨Nat.add_lt_add_left hnonempty _, fun i hi hi' => ?_, fun i hi h => ?_,
      mt (hat _).mp hafter⟩
    · obtain ⟨j, rfl⟩ := Nat.exists_eq_add_of_le ((Nat.le_add_right _ _).trans hi)
      exact (hat j).mpr (hinside j (Nat.le_of_add_le_add_left hi) (Nat.lt_of_add_lt_add_left hi'))
    · -- The position before the first one of the second text is that of the character.
      have hstart : i + 1 = x.length + 1 + span.start := hi
      rcases Nat.eq_zero_or_pos span.start with hzero | hpos
      · obtain rfl : i = x.length := by omega
        exact hcut h
      · obtain ⟨j, rfl⟩ : ∃ j, i = x.length + 1 + j := ⟨span.start - 1, by omega⟩
        exact hbefore j (by omega) ((hat j).mp h)

/-- A character that does not belong has the runs of the text on its two sides. -/
theorem isRun_append_cons_iff (span : Span) :
    span.IsRun belongs (x ++ c :: y) ↔
      span.IsRun belongs x ∨
        ∃ other, shift (x.length + 1) other = span ∧ other.IsRun belongs y := by
  constructor
  · intro h
    have hcut : ¬ (span.start ≤ x.length ∧ x.length < span.stop) := fun hboth =>
      ((belongsAt_append_cons_left hc x y le_rfl).mp (h.inside _ hboth.1 hboth.2)).lt_length.false
    rcases Nat.lt_or_ge x.length span.stop with hstop | hstop
    · right
      let other : Span := ⟨span.start - (x.length + 1), span.stop - (x.length + 1)⟩
      have hshift : shift (x.length + 1) other = span := by
        have hstart : x.length + 1 ≤ span.start := by omega
        exact Span.ext (Nat.add_sub_of_le hstart) (Nat.add_sub_of_le hstop)
      exact ⟨other, hshift, (isRun_append_cons_right hc x y other).mp (hshift ▸ h)⟩
    · exact Or.inl ((isRun_append_cons_left hc x y hstop).mp h)
  · rintro (h | ⟨other, rfl, h⟩)
    · exact (isRun_append_cons_left hc x y h.stop_le_length).mpr h
    · exact (isRun_append_cons_right hc x y other).mpr h

end Cut

/-- A span of the first part of a text has the characters of the first part. -/
theorem slice_append {x : List Char} {span : Span} (h : span.stop ≤ x.length) (y : List Char) :
    span.slice (x ++ y) = span.slice x := by
  rw [slice, slice, List.drop_append, List.take_append_of_le_length]
  rw [List.length_drop]
  omega

/-- A span of the second part of a text has the characters of the second part. -/
theorem slice_shift (x : List Char) (c : Char) (y : List Char) (span : Span) :
    (shift (x.length + 1) span).slice (x ++ c :: y) = span.slice y := by
  have hdrop : (x ++ c :: y).drop (x.length + 1 + span.start) = y.drop span.start := by
    rw [← List.drop_drop, List.append_cons, List.drop_left' (by simp)]
  rw [slice, slice, shift, hdrop, Nat.add_sub_add_left]

end Span

/-! ## Runs -/

/-- The runs of a text are the characters at its spans, in order. -/
theorem exists_spans (belongs : Char → Bool) (text : List Char) :
    ∃ spans : List Span, runs belongs text = spans.map (Span.slice · text) ∧
      spans.Pairwise (fun earlier later => earlier.stop < later.start) ∧
      ∀ span, span ∈ spans ↔ span.IsRun belongs text := by
  induction text using cut_induction belongs with
  | whole text hall =>
    by_cases hne : text = []
    · refine ⟨[], by rw [hne]; rfl, List.Pairwise.nil, fun span => ?_⟩
      rw [Span.isRun_iff_of_forall hall]
      simp [hne]
    · refine ⟨[⟨0, text.length⟩], ?_, List.pairwise_singleton _ _, fun span => ?_⟩
      · rw [runs_eq_singleton hne hall, List.map_singleton, Span.slice]
        simp
      · rw [Span.isRun_iff_of_forall hall, List.mem_singleton, and_iff_left hne]
  | cut x c y hcut ihx ihy =>
    obtain ⟨left, hleft, hleftOrder, hleftRuns⟩ := ihx
    obtain ⟨right, hright, hrightOrder, hrightRuns⟩ := ihy
    refine ⟨left ++ right.map (Span.shift (x.length + 1)), ?_, ?_, fun span => ?_⟩
    · rw [runs_append_cons hcut, hleft, hright, List.map_append, List.map_map]
      congr 1
      · exact List.map_congr_left fun span hspan =>
          (Span.slice_append ((hleftRuns span).mp hspan).stop_le_length _).symm
      · exact List.map_congr_left fun span _ => (Span.slice_shift x c y span).symm
    · refine List.pairwise_append.mpr ⟨hleftOrder, ?_, ?_⟩
      · exact List.pairwise_map.mpr (hrightOrder.imp fun h => Nat.add_lt_add_left h _)
      · intro earlier hearlier later hlater
        obtain ⟨span, -, rfl⟩ := List.mem_map.mp hlater
        have hfits := ((hleftRuns earlier).mp hearlier).stop_le_length
        simp only [Span.shift]
        omega
    · rw [List.mem_append, hleftRuns, List.mem_map, Span.isRun_append_cons_iff hcut]
      simp only [hrightRuns, and_comm]

/-- The runs of a text are the text without the characters that do not belong. -/
theorem flatten_runs (text : List Char) : (runs belongs text).flatten = text.filter belongs := by
  induction text using cut_induction belongs with
  | whole text hall =>
    by_cases hne : text = []
    · rw [hne]
      rfl
    · rw [runs_eq_singleton hne hall, List.filter_eq_self.mpr hall, List.flatten_singleton]
  | cut x c y hcut ihx ihy =>
    rw [runs_append_cons hcut, List.flatten_append, ihx, ihy, List.filter_append,
      List.filter_cons_of_neg (by simp [hcut])]

/-- Two positions are in the same run exactly if there are only characters that belong from one to
the other. -/
theorem exists_isRun_iff (text : List Char) {i k : ℕ} (hik : i ≤ k) :
    (∃ span : Span, span.IsRun belongs text ∧ span.start ≤ i ∧ k < span.stop) ↔
      ∀ j, i ≤ j → j ≤ k → BelongsAt belongs text j := by
  constructor
  · rintro ⟨span, hspan, hi, hk⟩ j hij hjk
    exact hspan.inside j (hi.trans hij) (hjk.trans_lt hk)
  · induction text using cut_induction belongs generalizing i k with
    | whole text hall =>
      intro hbelongs
      have hk := (hbelongs k hik le_rfl).lt_length
      exact ⟨⟨0, text.length⟩, (Span.isRun_iff_of_forall hall _).mpr
        ⟨rfl, List.ne_nil_of_length_pos (Nat.zero_lt_of_lt hk)⟩, Nat.zero_le i, hk⟩
    | cut x c y hcut ihx ihy =>
      intro hbelongs
      -- The positions do not reach over the character in the middle.
      have hside : k < x.length ∨ x.length < i := by
        by_contra hboth
        have hmiddle := hbelongs x.length (by omega) (by omega)
        exact ((belongsAt_append_cons_left hcut x y le_rfl).mp hmiddle).lt_length.false
      rcases hside with hleft | hright
      · obtain ⟨span, hspan, hends⟩ := ihx hik fun j hij hjk =>
          (belongsAt_append_cons_left hcut x y (hjk.trans hleft.le)).mp (hbelongs j hij hjk)
        exact ⟨span, (Span.isRun_append_cons_iff hcut x y span).mpr (Or.inl hspan), hends⟩
      · obtain ⟨i, rfl⟩ := Nat.exists_eq_add_of_le hright
        obtain ⟨k, rfl⟩ := Nat.exists_eq_add_of_le ((Nat.le_add_right _ _).trans hik)
        obtain ⟨span, hspan, hi, hk⟩ := ihy (Nat.le_of_add_le_add_left hik) fun j hij hjk =>
          (belongsAt_append_cons_right x y j).mp
            (hbelongs _ (Nat.add_le_add_left hij _) (Nat.add_le_add_left hjk _))
        exact ⟨span.shift (x.length + 1), (Span.isRun_append_cons_right hcut x y span).mpr hspan,
          Nat.add_le_add_left hi _, Nat.add_lt_add_left hk _⟩

end Text

namespace Description

/-- The words of a text are the text without all other characters. -/
theorem join_words (text : String) :
    String.join (words text) = String.ofList (text.toList.filter Char.isAlpha) := by
  have htoList : String.toList ∘ String.ofList = id := funext fun _ => String.toList_ofList
  rw [← Text.flatten_runs, words, String.join_eq, List.map_map, htoList, List.map_id]

/-- A text has no words exactly if it has no letters. -/
theorem words_eq_nil_iff (text : String) : words text = [] ↔ IsSeparator text := by
  constructor
  · intro hnone
    have hletters := join_words text
    rw [hnone, String.join_nil, eq_comm, String.ofList_eq_empty_iff, List.filter_eq_nil_iff]
      at hletters
    exact fun c hc => by simpa using hletters c hc
  · intro h
    rw [← String.append_empty (s := text), words_separator_append h, words_empty]

/-- The words of a text are the characters at its maximal spans of letters, in order. Two letters
are in the same word exactly if nothing but letters is between them. So words are nonempty strings
of letters, and together they are the text without all other characters. A separator cuts the words
of a text in two, and words with any separators between and around them are those of that text. -/
theorem words_are_maximal_runs (text : String) :
    (∃ spans : List Text.Span,
      words text = spans.map (fun span => String.ofList (span.slice text.toList)) ∧
      spans.Pairwise (fun earlier later => earlier.stop < later.start) ∧
      (∀ span, span ∈ spans ↔ span.IsRun Char.isAlpha text.toList) ∧
      ∀ i k, i ≤ k → ((∃ span ∈ spans, span.start ≤ i ∧ k < span.stop) ↔
        ∀ j, i ≤ j → j ≤ k → Text.BelongsAt Char.isAlpha text.toList j)) ∧
    (∀ word ∈ words text, IsWord word) ∧
    String.join (words text) = String.ofList (text.toList.filter Char.isAlpha) ∧
    (∀ gap rest, IsSeparator gap → gap ≠ "" →
      words (text ++ gap ++ rest) = words text ++ words rest) ∧
    (words text = [] ↔ IsSeparator text) ∧
    ∀ before joined after, IsJoined (words text) joined → IsSeparator before →
      IsSeparator after → words (before ++ joined ++ after) = words text := by
  obtain ⟨spans, hspans, horder, hruns⟩ := Text.exists_spans Char.isAlpha text.toList
  refine ⟨⟨spans, ?_, horder, hruns, fun i k hik => ?_⟩, fun _ => isWord_of_mem_words,
    join_words text, fun gap rest hgap hne => words_append_separator hgap hne text rest,
    words_eq_nil_iff text, fun before joined after hjoined hbefore hafter => ?_⟩
  · rw [words, hspans, List.map_map]
    rfl
  · simp only [hruns]
    exact Text.exists_isRun_iff _ hik
  · rw [words_append_gap hafter, words_separator_append hbefore,
      hjoined.words_eq fun _ => isWord_of_mem_words]

/-- Letters with accents, digits and blanks separate words. The two letters after the accent are in
one word, and those on both sides of it are not. -/
theorem words_are_maximal_runs_accents :
    let text := "crème de2 la"
    words text = ["cr", "me", "de", "la"] ∧
      (∃ span : Text.Span, span.IsRun Char.isAlpha text.toList ∧ span.start ≤ 3 ∧ 4 < span.stop) ∧
      (¬ ∃ span : Text.Span,
        span.IsRun Char.isAlpha text.toList ∧ span.start ≤ 1 ∧ 3 < span.stop) ∧
      words (text ++ "-é" ++ "menthe") = words text ++ words "menthe" ∧
      words ("¡" ++ ("cr" ++ "+" ++ ("me" ++ "é" ++ ("de" ++ ", " ++ "la"))) ++ "!") =
        words text := by
  intro text
  have hwords : words text = ["cr", "me", "de", "la"] := by decide +kernel
  obtain ⟨⟨spans, -, -, hruns, hsame⟩, -, -, hcut, -, hjoined⟩ := words_are_maximal_runs text
  simp only [hruns] at hsame
  refine ⟨hwords, (hsame 3 4 (by decide)).mpr fun j hj hj' => ?_, fun hspan => ?_,
    hcut "-é" "menthe" (by decide) (by decide), hjoined "¡" _ "!" ?_ (by decide) (by decide)⟩
  · obtain rfl | rfl : j = 3 ∨ j = 4 := by omega
    · exact ⟨'m', by decide +kernel, rfl⟩
    · exact ⟨'e', by decide +kernel, rfl⟩
  · obtain ⟨c, hc, hletter⟩ := (hsame 1 3 (by decide)).mp hspan 2 (by decide) (by decide)
    have haccent : text.toList[2]? = some 'è' := by decide +kernel
    obtain rfl : 'è' = c := Option.some.inj (haccent.symm.trans hc)
    exact absurd hletter (by decide)
  · rw [hwords]
    exact .cons "cr" (by decide) (by decide) (.cons "me" (by decide) (by decide)
      (.cons "de" (by decide) (by decide) (.single "la")))

end Description

end ColorWords
