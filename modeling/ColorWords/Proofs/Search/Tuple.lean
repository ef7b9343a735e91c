import ColorWords.Scalar.Binary64
import ColorWords.Search
import Mathlib.Data.Nat.Digits.Lemmas
import Mathlib.Data.Set.Function
import Mathlib.Tactic.Ring

/-!
# Tuples of candidates

A tuple of a given length is a list of positions below the number of candidates. Read as
digits, the first one least significant, tuples are numbered without gaps: `digits` and
`Nat.ofDigits` are inverse to each other between the numbers below `base ^ length` and the
tuples. Counting up changes the first position fastest.

The selection of colors for a number follows the same digits. It is cleared before it is filled,
so what an earlier tuple left in it does not matter, and every mix is that of its own tuple.
-/

namespace ColorWords

/-- The list is a tuple of the given length over positions below the base. -/
def IsTuple (base length : ℕ) (indices : List ℕ) : Prop :=
  indices.length = length ∧ ∀ i ∈ indices, i < base

/-- The first digit is the remainder, and the others are those of the quotient. -/
theorem digits_succ (base length n : ℕ) :
    digits base (length + 1) n = n % base :: digits base length (n / base) := by
  unfold digits
  rw [List.range_succ_eq_map, List.map_cons, List.map_map]
  congr 1
  · simp
  · apply List.map_congr_left
    intro i _
    change n / base ^ (i + 1) % base = n / base / base ^ i % base
    rw [Nat.div_div_eq_div_mul, pow_succ']

/-- The digits of a number form a tuple. -/
theorem isTuple_digits {base : ℕ} (hbase : 0 < base) (length n : ℕ) :
    IsTuple base length (digits base length n) := by
  refine ⟨by simp [digits], fun i hi => ?_⟩
  obtain ⟨position, -, rfl⟩ := List.mem_map.mp hi
  exact Nat.mod_lt _ hbase

/-- The number that the digits of a number amount to is its remainder. -/
theorem ofDigits_digits (base length n : ℕ) :
    Nat.ofDigits base (digits base length n) = n % base ^ length := by
  induction length generalizing n with
  | zero => simp [digits, Nat.mod_one]
  | succ length ih =>
    rw [digits_succ, Nat.ofDigits_cons, ih, pow_succ', Nat.mod_mul]

/-- The number of a tuple has the tuple as its digits. -/
theorem digits_ofDigits {base length : ℕ} {indices : List ℕ} (h : IsTuple base length indices) :
    digits base length (Nat.ofDigits base indices) = indices := by
  obtain ⟨rfl, hlt⟩ := h
  induction indices with
  | nil => rfl
  | cons i rest ih =>
    have hi : i < base := hlt i List.mem_cons_self
    rw [List.length_cons, digits_succ, Nat.ofDigits_cons, Nat.add_mul_mod_self_left,
      Nat.mod_eq_of_lt hi, Nat.add_mul_div_left _ _ (by omega), Nat.div_eq_of_lt hi, zero_add,
      ih fun j hj => hlt j (List.mem_cons_of_mem _ hj)]

/-- The number of a tuple is one of `base ^ length`. -/
theorem ofDigits_lt {base length : ℕ} {indices : List ℕ} (h : IsTuple base length indices) :
    Nat.ofDigits base indices < base ^ length := by
  obtain ⟨rfl, hlt⟩ := h
  induction indices with
  | nil => simp
  | cons i rest ih =>
    have hi : i < base := hlt i List.mem_cons_self
    have hrest : Nat.ofDigits base rest < base ^ rest.length :=
      ih fun j hj => hlt j (List.mem_cons_of_mem _ hj)
    calc Nat.ofDigits base (i :: rest) = i + base * Nat.ofDigits base rest := by
          rw [Nat.ofDigits_cons]
      _ < base * (Nat.ofDigits base rest + 1) := by rw [mul_add]; omega
      _ ≤ base ^ (i :: rest).length := by
          rw [List.length_cons, pow_succ']
          exact Nat.mul_le_mul_left _ hrest

/-- The number of a tuple, in which a position counts a power of the base. -/
def tupleNumber (base : ℕ) (indices : List ℕ) : ℕ :=
  (indices.mapIdx fun place i => i * base ^ place).sum

/-- Tuples are numbered by reading them as digits. -/
theorem tupleNumber_eq (base : ℕ) (indices : List ℕ) :
    tupleNumber base indices = Nat.ofDigits base indices :=
  (Nat.ofDigits_eq_sum_mapIdx base indices).symm

/-- The digits and the number of a tuple are inverse to each other. -/
theorem invOn_tupleNumber_digits (base length : ℕ) :
    Set.InvOn (tupleNumber base) (digits base length) (Set.Iio (base ^ length))
      {indices | IsTuple base length indices} := by
  constructor
  · intro n hn
    rw [tupleNumber_eq, ofDigits_digits, Nat.mod_eq_of_lt hn]
  · intro indices hindices
    rw [tupleNumber_eq, digits_ofDigits hindices]

/-- Every tuple has the digits of exactly one of the numbers below `base ^ length`. -/
theorem bijOn_digits {base : ℕ} (hbase : 0 < base) (length : ℕ) :
    Set.BijOn (digits base length) (Set.Iio (base ^ length))
      {indices | IsTuple base length indices} := by
  refine (invOn_tupleNumber_digits base length).bijOn (fun n _ => isTuple_digits hbase length n) ?_
  intro indices hindices
  rw [Set.mem_Iio, tupleNumber_eq]
  exact ofDigits_lt hindices

/-- The tuple after the given one: the first position moves on by one. After the last candidate it
returns to the first one, and then the positions behind it move on. -/
def advance (base : ℕ) : List ℕ → List ℕ
  | [] => []
  | i :: rest => if i + 1 < base then (i + 1) :: rest else 0 :: advance base rest

/-- The digits of the next number are those of the next tuple. -/
theorem digits_add_one {base : ℕ} (hbase : 0 < base) (length n : ℕ) :
    digits base length (n + 1) = advance base (digits base length n) := by
  induction length generalizing n with
  | zero => rfl
  | succ length ih =>
    have hdigit : n % base < base := Nat.mod_lt n hbase
    have hsplit : n % base + base * (n / base) = n := Nat.mod_add_div n base
    rw [digits_succ, digits_succ, advance]
    split
    · next hnext =>
      -- The quotient stays, and the other digits with it.
      have hsum : n + 1 = n % base + 1 + base * (n / base) := by omega
      have hmod : (n + 1) % base = n % base + 1 := by
        rw [hsum, Nat.add_mul_mod_self_left, Nat.mod_eq_of_lt hnext]
      have hdiv : (n + 1) / base = n / base := by
        rw [hsum, Nat.add_mul_div_left _ _ hbase, Nat.div_eq_of_lt hnext, zero_add]
      rw [hmod, hdiv]
    · next hcarry =>
      -- The quotient is the next number, whose digits are those of the next shorter tuple.
      have hsum : n + 1 = base * (n / base + 1) := by
        rw [mul_add]
        omega
      rw [hsum, Nat.mul_mod_right, Nat.mul_div_cancel_left _ hbase, ih]

namespace Search

variable {α : Type} [Scalar α]

/-- The colors at the given positions, in order. -/
def colorsAt (candidates : List (Color α)) (indices : List ℕ) : List (Color α) :=
  indices.map fun i => candidates.getD i Color.neutral

/-- Selecting appends the candidates at the digits of the number. -/
theorem selectFrom_toList (candidates : List (Color α)) (selection : Array (Color α))
    (length n : ℕ) :
    (selectFrom candidates.toArray selection length n).toList =
      selection.toList ++ colorsAt candidates (digits candidates.length length n) := by
  induction length generalizing selection n with
  | zero => simp [selectFrom, colorsAt, digits]
  | succ length ih =>
    rw [selectFrom, ih, digits_succ]
    simp [colorsAt]

/-- A refilled selection holds the candidates at the digits of the number. -/
theorem select_eq (candidates : List (Color α)) (length n : ℕ) (selection : Array (Color α)) :
    (select candidates.toArray length n selection).toList =
      colorsAt candidates (digits candidates.length length n) := by
  rw [select, selectFrom_toList]
  simp

/-- The mixes are those of the tuples with the numbers from the first one on, whatever the selection
held before. -/
theorem mixFrom_toList (candidates : List (Color α)) (length count n : ℕ)
    (selection mixes : Array (Color α)) :
    (mixFrom candidates.toArray length count n selection mixes).toList =
      mixes.toList ++ (List.range' n count).map fun k =>
        Color.mix (colorsAt candidates (digits candidates.length length k)) := by
  induction count generalizing n selection mixes with
  | zero => simp [mixFrom]
  | succ count ih =>
    rw [mixFrom, ih, select_eq, List.range'_succ]
    simp

/-- The mixes are those of all tuples to try, in the order of their numbers. -/
theorem mixes_toList (candidates : List (Color α)) (length : ℕ) :
    (mixes candidates.toArray length).toList =
      (List.range (tupleCount candidates.length length)).map fun n =>
        Color.mix (colorsAt candidates (digits candidates.length length n)) := by
  rw [mixes, mixFrom_toList, List.range_eq_range']
  simp

/-- The mix of a number is that of the candidates at its digits. -/
theorem getElem_mixes (candidates : List (Color α)) (length n : ℕ)
    (h : n < (mixes candidates.toArray length).size) :
    (mixes candidates.toArray length)[n] =
      Color.mix (colorsAt candidates (digits candidates.length length n)) := by
  simp only [← Array.getElem_toList, mixes_toList, List.getElem_map, List.getElem_range]

/-- The candidates at positions of a tuple are there, so none is replaced by the neutral color. -/
theorem map_some_colorsAt {candidates : List (Color α)} {length : ℕ} {indices : List ℕ}
    (h : IsTuple candidates.length length indices) :
    (colorsAt candidates indices).map some = indices.map fun i => candidates[i]? := by
  rw [colorsAt, List.map_map]
  refine List.map_congr_left fun i hi => ?_
  have hlt : i < candidates.length := h.2 i hi
  simp [hlt]

/-- The numbers below `base ^ length` are in one-to-one correspondence with the tuples: a number
leads to its digits, and a tuple to the number in which its positions count the powers of the base.
From a number to the next one the first position moves on, and the others only when those before
them start again. A selection is filled with the candidates at the digits of a number, in order,
whatever it held before. -/
theorem selections_are_numbered {base : ℕ} (hbase : 1 ≤ base) (length : ℕ) :
    Set.BijOn (digits base length) (Set.Iio (base ^ length))
      {indices | IsTuple base length indices} ∧
    Set.InvOn (tupleNumber base) (digits base length) (Set.Iio (base ^ length))
      {indices | IsTuple base length indices} ∧
    (∀ n, digits base length (n + 1) = advance base (digits base length n)) ∧
    ∀ candidates : List (Color α), candidates.length = base →
      ∀ (n : ℕ) (selection : Array (Color α)),
        (select candidates.toArray length n selection).toList.map some =
          (digits base length n).map fun i => candidates[i]? := by
  refine ⟨bijOn_digits hbase length, invOn_tupleNumber_digits base length,
    digits_add_one hbase length, ?_⟩
  rintro candidates rfl n selection
  rw [select_eq]
  exact map_some_colorsAt (isTuple_digits hbase length n)

/-- The sixth pair of three colors is the third color and the second one. -/
theorem selections_are_numbered_pairs :
    let white : Color Float := .solid ⟨1.0, 0.0, 0.0⟩
    let red : Color Float := .solid ⟨0.6, 0.2, 0.1⟩
    let blue : Color Float := .solid ⟨0.45, -0.03, -0.3⟩
    1 ≤ 3 ∧ [white, red, blue].length = 3 ∧ digits 3 2 5 = [2, 1] ∧ tupleNumber 3 [2, 1] = 5 ∧
      digits 3 2 6 = [0, 2] ∧
      (select [white, red, blue].toArray 2 5 #[white, white, white]).toList.map some =
        [some blue, some red] := by
  intro white red blue
  obtain ⟨-, ⟨hnumber, -⟩, hnext, hselect⟩ := @selections_are_numbered Float _ 3 (by decide) 2
  have hdigits : digits 3 2 5 = [2, 1] := by decide
  refine ⟨by decide, rfl, hdigits, hdigits ▸ hnumber (by decide), ?_, ?_⟩
  · rw [hnext 5, hdigits]
    decide
  · rw [hselect [white, red, blue] rfl 5, hdigits]
    rfl

end Search

end ColorWords
