/-
  Text — line-oriented text as byte sequences: lines, fields and decimal
  numbers, and the laws that reading gives back what was written.

  * `lines` is repeated `getline`: a last line without an end counts;
  * `fields` (`List.splitOn`) cuts a line at a separator;
  * `decimal` writes a natural number and `digits` reads one in any base up to
    16 (all of the text must be digits), as `from_chars` does.
-/
import Mathlib

namespace Text

/-- The end of a line. -/
def newline : UInt8 := 10

/-! ## Lines -/

/-- The lines of a text. -/
def lines (text : List UInt8) : List (List UInt8) :=
  let parts := text.splitOn newline
  if parts.getLast? = some [] then parts.dropLast else parts

/-- Each line with its end. -/
def unlines (ls : List (List UInt8)) : List UInt8 := ls.flatMap fun l => l ++ [newline]

theorem unlines_eq (ls : List (List UInt8)) : unlines ls = [newline].intercalate (ls ++ [[]]) := by
  induction ls with
  | nil => rfl
  | cons l ls ih =>
    rw [unlines] at ih
    rw [unlines, List.flatMap_cons, ih, List.cons_append, List.intercalate_cons_of_ne_nil (by simp)]

/-- The lines that were written are read. -/
theorem lines_unlines {ls : List (List UInt8)} (h : ∀ l ∈ ls, newline ∉ l) :
    lines (unlines ls) = ls := by
  have hsplit : (unlines ls).splitOn newline = ls ++ [[]] := by
    rw [unlines_eq, List.splitOn_intercalate _ _ (by simp)]
    intro l hl
    rcases List.mem_append.1 hl with hl | hl
    · exact h l hl
    · simp [List.mem_singleton.1 hl]
  simp [lines, hsplit]

/-- The first line of a file, and a line for each record. -/
theorem lines_records {α : Type} {head : List UInt8} {line : α → List UInt8} {as : List α}
    (hhead : newline ∉ head) (hline : ∀ a ∈ as, newline ∉ line a) :
    lines (unlines (head :: as.map line)) = head :: as.map line := by
  refine lines_unlines (List.forall_mem_cons.2 ⟨hhead, fun l hl => ?_⟩)
  obtain ⟨a, ha, rfl⟩ := List.mem_map.1 hl
  exact hline a ha

/-- Lines that are not empty are all read. -/
theorem filter_records {α : Type} {line : α → List UInt8} {as : List α}
    (h : ∀ a ∈ as, line a ≠ []) : (as.map line).filter (· ≠ []) = as.map line := by
  refine List.filter_eq_self.2 fun l hl => ?_
  obtain ⟨a, ha, rfl⟩ := List.mem_map.1 hl
  exact decide_eq_true (h a ha)

/-- **Reading the records of a file**, each into a store of those before it. -/
theorem forM_records {ε σ α : Type} {line : α → List UInt8} {read : List UInt8 → EStateM ε σ Unit}
    (store : List α → σ) {as : List α} (hne : ∀ a ∈ as, line a ≠ [])
    (hread : ∀ before a after, as = before ++ a :: after →
      (read (line a)).run (store before) = .ok () (store (before ++ [a]))) :
    (forM ((as.map line).filter (· ≠ [])) read).run (store []) = .ok () (store as) := by
  have hrest : ∀ rest before, as = before ++ rest →
      (forM (rest.map line) read).run (store before) = .ok () (store as) := by
    intro rest
    induction rest with
    | nil =>
      rintro before rfl
      rw [List.append_nil]
      rfl
    | cons a rest ih =>
      intro before has
      rw [List.map_cons, List.forM_cons, EStateM.run_bind, hread before a rest has]
      exact ih (before ++ [a]) (by rw [has, List.append_cons])
  rw [filter_records hne]
  exact hrest as [] rfl

/-! ## Fields -/

/-- The fields of a line. -/
def fields (line : List UInt8) (separator : UInt8) : List (List UInt8) := line.splitOn separator

theorem fields_intercalate {separator : UInt8} {fs : List (List UInt8)} (hne : fs ≠ [])
    (h : ∀ f ∈ fs, separator ∉ f) : fields ([separator].intercalate fs) separator = fs :=
  List.splitOn_intercalate _ h hne

theorem mem_intercalate {c separator : UInt8} {fs : List (List UInt8)}
    (h : c ∈ [separator].intercalate fs) : c = separator ∨ ∃ f ∈ fs, c ∈ f := by
  induction fs with
  | nil => simp at h
  | cons f fs ih =>
    cases fs with
    | nil => exact .inr ⟨f, List.mem_singleton_self _, by simpa using h⟩
    | cons f' fs =>
      rw [List.intercalate_cons_cons, List.mem_append, List.mem_append] at h
      obtain (h | h) | h := h
      · exact .inr ⟨f, List.mem_cons_self, h⟩
      · exact .inl (List.mem_singleton.1 h)
      · exact (ih h).imp_right fun ⟨g, hg, hc⟩ => ⟨g, List.mem_cons_of_mem _ hg, hc⟩

theorem notMem_intercalate {c separator : UInt8} {fs : List (List UInt8)} (hne : c ≠ separator)
    (h : ∀ f ∈ fs, c ∉ f) : c ∉ [separator].intercalate fs := by
  intro hmem
  obtain hsep | ⟨f, hf, hc⟩ := mem_intercalate hmem
  · exact hne hsep
  · exact h f hf hc

/-- A line of two fields or more is not empty. -/
theorem intercalate_ne_nil {separator : UInt8} {f f' : List UInt8} {fs : List (List UInt8)} :
    [separator].intercalate (f :: f' :: fs) ≠ [] := by
  rw [List.intercalate_cons_cons]
  simp

/-! ## Numbers -/

/-- The value of a digit of either case, in base `base`. -/
def digit (base : ℕ) (c : UInt8) : Option ℕ :=
  let value := if 48 ≤ c ∧ c ≤ 57 then some (c.toNat - 48)
    else if 97 ≤ c ∧ c ≤ 102 then some (c.toNat - 87)
    else if 65 ≤ c ∧ c ≤ 70 then some (c.toNat - 55)
    else none
  value.filter (· < base)

/-- One more digit. -/
def readDigit (base : ℕ) (n : ℕ) (c : UInt8) : Option ℕ := do
  let d ← digit base c
  return d + base * n

/-- A text of digits, at least one. -/
def digits (base : ℕ) (text : List UInt8) : Option ℕ :=
  if text = [] then none else text.foldlM (readDigit base) 0

/-- An unsigned number below `bound`. -/
def unsigned (base bound : ℕ) (text : List UInt8) : Option ℕ :=
  (digits base text).filter (· < bound)

/-- A decimal number between `-bound` and `bound - 1`. -/
def signed (bound : ℕ) (text : List UInt8) : Option ℤ :=
  match text with
  | 45 :: text => ((digits 10 text).filter (· ≤ bound)).map fun n => -(n : ℤ)
  | text => ((digits 10 text).filter (· < bound)).map fun n => (n : ℤ)

/-- A number in decimal. -/
def decimal (n : ℕ) : List UInt8 :=
  if n = 0 then [48] else (Nat.digits 10 n).reverse.map fun d => UInt8.ofNat (48 + d)

/-- A decimal digit. -/
def IsDigit (c : UInt8) : Prop := 48 ≤ c ∧ c ≤ 57

theorem digit_ofNat : ∀ d < 10, digit 10 (UInt8.ofNat (48 + d)) = some d := by decide

theorem isDigit_ofNat : ∀ d < 10, IsDigit (UInt8.ofNat (48 + d)) := by
  unfold IsDigit; decide

theorem decimal_ne_nil (n : ℕ) : decimal n ≠ [] := by
  unfold decimal
  split_ifs with h
  · simp
  · simpa [Nat.digits_eq_nil_iff_eq_zero] using h

theorem decimal_isDigit (n : ℕ) : ∀ c ∈ decimal n, IsDigit c := by
  intro c hc
  unfold decimal at hc
  split_ifs at hc with h
  · obtain rfl := List.mem_singleton.1 hc
    exact isDigit_ofNat 0 (by norm_num)
  · obtain ⟨d, hd, rfl⟩ := List.mem_map.1 hc
    exact isDigit_ofNat d (Nat.digits_lt_base (by norm_num) (List.mem_reverse.1 hd))

theorem not_mem_decimal {c : UInt8} (hc : ¬ IsDigit c) (n : ℕ) : c ∉ decimal n :=
  fun h => hc (decimal_isDigit n c h)

theorem newline_notMem_decimal (n : ℕ) : newline ∉ decimal n :=
  not_mem_decimal (by unfold IsDigit newline; decide) n

theorem foldlM_readDigit {ds : List ℕ} (h : ∀ d ∈ ds, d < 10) (start : ℕ) :
    (ds.map fun d => UInt8.ofNat (48 + d)).foldlM (readDigit 10) start =
      some (ds.foldl (fun n d => d + 10 * n) start) := by
  induction ds generalizing start with
  | nil => rfl
  | cons d ds ih =>
    obtain ⟨hd, hds⟩ := List.forall_mem_cons.1 h
    rw [List.map_cons, List.foldlM_cons, readDigit, digit_ofNat d hd]
    exact ih hds _

theorem decimal_eq_map (n : ℕ) : ∃ ds : List ℕ, decimal n = ds.map (fun d => UInt8.ofNat (48 + d)) ∧
    (∀ d ∈ ds, d < 10) ∧ ds.foldl (fun n d => d + 10 * n) 0 = n := by
  unfold decimal
  split_ifs with h
  · exact ⟨[0], rfl, by simp, h.symm⟩
  · refine ⟨_, rfl, fun d hd => Nat.digits_lt_base (by norm_num) (List.mem_reverse.1 hd), ?_⟩
    rw [List.foldl_reverse]
    have := Nat.ofDigits_digits 10 n
    rwa [Nat.ofDigits_eq_foldr] at this

theorem foldl_replicate_zero (k : ℕ) :
    (List.replicate k 0).foldl (fun n d => d + 10 * n) 0 = 0 := by
  induction k with
  | zero => rfl
  | succ k ih => simpa [List.replicate_succ] using ih

/-- A number that was written is read, behind any number of zeros. -/
theorem digits_replicate_decimal (k n : ℕ) :
    digits 10 (List.replicate k 48 ++ decimal n) = some n := by
  obtain ⟨ds, hds, hlt, hval⟩ := decimal_eq_map n
  have hne : List.replicate k 48 ++ decimal n ≠ [] := by simp [decimal_ne_nil]
  rw [digits, if_neg hne, hds, show List.replicate k (48 : UInt8) =
    (List.replicate k 0).map fun d => UInt8.ofNat (48 + d) by simp, ← List.map_append,
    foldlM_readDigit (by simpa [or_imp, forall_and] using hlt), List.foldl_append]
  rw [foldl_replicate_zero, hval]

@[simp] theorem digits_decimal (n : ℕ) : digits 10 (decimal n) = some n :=
  digits_replicate_decimal 0 n

@[simp] theorem unsigned_decimal {bound n : ℕ} (h : n < bound) :
    unsigned 10 bound (decimal n) = some n := by
  simp [unsigned, h]

theorem signed_decimal {bound n : ℕ} (h : n < bound) :
    signed bound (decimal n) = some (n : ℤ) := by
  unfold signed
  split
  · rename_i text heq
    have := decimal_isDigit n 45 (by rw [heq]; simp)
    exact absurd this (by unfold IsDigit; decide)
  · simp [Option.filter_some, h]

end Text
